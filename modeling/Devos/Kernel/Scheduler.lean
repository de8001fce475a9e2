import Devos.Kernel.Schedule
import Devos.Library.Runs
import Mathlib.Data.Int.Init

/-! The scheduler proper: which task `schedule` picks, and what becomes of the counters and priorities over a run. -/

namespace Devos.Kernel

open Loops Runs

abbrev Long := BitVec 32

/-- What of `struct task_struct` the scheduler works on. -/
structure SchedTask where
  state : ℤ
  counter : Long
  priority : Long

abbrev SchedTable := Fin nrTasks → Option SchedTask

/-- `c` and `next` -/
structure Candidate where
  c : Long
  next : Fin nrTasks

namespace SchedTask

def recompute (t : SchedTask) : SchedTask := { t with counter := t.counter.sshiftRight 1 + t.priority }

/-- `sys_nice` -/
def nice (t : SchedTask) (increment : Long) : SchedTask :=
  if 0 < (t.priority - increment).toInt then { t with priority := t.priority - increment } else t

/-- The counter is down, and `do_timer` goes on to `schedule` if a user program has been interrupted. -/
def isUp (t : SchedTask) : Prop := ¬0 < (t.counter - 1).toInt

instance (t : SchedTask) : Decidable t.isUp := inferInstanceAs (Decidable (¬_))

/-- What `do_timer` does to the counter. -/
def tick (t : SchedTask) : SchedTask := { t with counter := if t.isUp then 0 else t.counter - 1 }

/-- The child's part of `copy_process`. -/
def child (t : SchedTask) : SchedTask := { t with state := taskRunning, counter := t.priority }

end SchedTask

section Selection

variable (task : SchedTable)

/-- A turn of the loop over the tasks. -/
def consider (i : Fin nrTasks) (s : Candidate) : Candidate :=
  match task i with
  | none => s
  | some t => if t.state = taskRunning ∧ s.c.toInt < t.counter.toInt then ⟨t.counter, i⟩ else s

/-- `while (--i)`, which leaves task 0 out. -/
def select : Candidate :=
  forLoop 0 (nrTasks - 1) (fun k => consider task (Fin.ofNat nrTasks (nrTasks - 1 - k))) ⟨-1, 0⟩

/-- `for(p = &LAST_TASK ; p > &FIRST_TASK ; --p)`, which leaves it out too. -/
def recompute : SchedTable := fun i => if i = 0 then task i else (task i).map SchedTask.recompute

/-- A turn of `while (1)`; the loop is left for `switch_to(next)`. -/
def scheduleBody (task : SchedTable) : Pass SchedTable (Fin nrTasks × SchedTable) :=
  if (select task).c ≠ 0 then .leave ((select task).next, task) else .again (recompute task)

/-- A task that may be picked. -/
def Runnable (i : Fin nrTasks) (t : SchedTask) : Prop := i ≠ 0 ∧ task i = some t ∧ t.state = taskRunning

/-- There is a task to run, and none that has time left. -/
def Spent : Prop := (∃ i t, Runnable task i t) ∧ ∀ i t, Runnable task i t → t.counter = 0

end Selection

section Select

variable {task task' : SchedTable} {i next : Fin nrTasks} {t : SchedTask}

/-- The tasks from `m` on have been considered. -/
structure Considered (task : SchedTable) (m : ℕ) (s : Candidate) : Prop where
  max : ∀ i t, m ≤ i.val → Runnable task i t → t.counter.toInt ≤ s.c.toInt
  found : s = ⟨-1, 0⟩ ∨ -1 < s.c.toInt ∧ ∃ t, Runnable task s.next t ∧ t.counter = s.c

lemma Considered.turn {s : Candidate} (h : Considered task (i.val + 1) s) (hi : i ≠ 0) :
    Considered task i.val (consider task i s) := by
  have hup : ∀ j : Fin nrTasks, i.val ≤ j.val → j ≠ i → i.val + 1 ≤ j.val := fun j hle hne =>
    Nat.lt_of_le_of_ne hle fun hv => hne (Fin.ext hv.symm)
  have hc : -1 ≤ s.c.toInt := by
    rcases h.found with rfl | ⟨hlt, _⟩
    · decide
    · exact hlt.le
  unfold consider
  cases ht : task i with
  | none =>
    refine ⟨fun j u hj hu => h.max j u (hup j hj ?_) hu, h.found⟩
    rintro rfl
    rw [hu.2.1] at ht
    cases ht
  | some t =>
    dsimp only
    by_cases hbetter : t.state = taskRunning ∧ s.c.toInt < t.counter.toInt
    · rw [if_pos hbetter]
      refine ⟨fun j u hj hu => ?_, Or.inr ⟨hc.trans_lt hbetter.2, t, ⟨hi, ht, hbetter.1⟩, rfl⟩⟩
      by_cases hji : j = i
      · subst hji
        obtain rfl := Option.some.inj (ht.symm.trans hu.2.1)
        exact le_refl _
      · exact (h.max j u (hup j hj hji) hu).trans hbetter.2.le
    · rw [if_neg hbetter]
      refine ⟨fun j u hj hu => ?_, h.found⟩
      by_cases hji : j = i
      · subst hji
        obtain rfl := Option.some.inj (ht.symm.trans hu.2.1)
        exact not_lt.mp fun hlt => hbetter ⟨hu.2.2, hlt⟩
      · exact h.max j u (hup j hj hji) hu

lemma select_spec (task : SchedTable) : Considered task 1 (select task) := by
  have hall : Considered task (nrTasks - (nrTasks - 1)) (select task) := by
    refine @forLoop_induction _ 0 (nrTasks - 1) _ _ (fun k s => Considered task (nrTasks - k) s) (Nat.zero_le _) ?_ ?_
    · exact ⟨fun j _ hj => absurd j.isLt (not_lt.mpr hj), Or.inl rfl⟩
    · intro k s _ hk hs
      have hval : (Fin.ofNat nrTasks (nrTasks - 1 - k)).val = nrTasks - 1 - k := by
        rw [Fin.ofNat]
        exact Nat.mod_eq_of_lt (by omega)
      generalize Fin.ofNat nrTasks (nrTasks - 1 - k) = j at hval
      have hj : j ≠ 0 := by
        rintro rfl
        rw [Fin.val_zero] at hval
        omega
      have hbefore : nrTasks - k = j.val + 1 := by omega
      have hafter : nrTasks - (k + 1) = j.val := by omega
      rw [hbefore] at hs
      rw [hafter]
      exact hs.turn hj
  exact hall

lemma Runnable.le_select (h : Runnable task i t) : t.counter.toInt ≤ (select task).c.toInt := by
  refine (select_spec task).max i t ?_ h
  exact Nat.one_le_iff_ne_zero.mpr fun hv => h.1 (Fin.ext hv)

/-- Without a recalculation: no task to run, or one with time left. -/
lemma select_cases (hcounter : ∀ i t, task i = some t → 0 ≤ t.counter.toInt) :
    (select task).c ≠ 0 ∧ (select task).next = 0 ∧ (∀ i t, ¬Runnable task i t) ∨
      (select task).c ≠ 0 ∧ (∃ t, Runnable task (select task).next t ∧ t.counter = (select task).c) ∧ ¬Spent task ∨
        (select task).c = 0 ∧ Spent task := by
  have hspec := select_spec task
  rcases hspec.found with hnone | ⟨hpos, t, hrun, hc⟩
  · refine Or.inl ⟨by rw [hnone]; decide, by rw [hnone], fun i t h => ?_⟩
    have hle := h.le_select
    have hnonneg := hcounter i t h.2.1
    have hminus : (select task).c.toInt = -1 := by rw [hnone]; decide
    omega
  · right
    by_cases hzero : (select task).c = 0
    · refine Or.inr ⟨hzero, ⟨_, t, hrun⟩, fun j u hu => ?_⟩
      have hle := hu.le_select
      have hnonneg := hcounter j u hu.2.1
      rw [hzero] at hle
      exact BitVec.eq_of_toInt_eq (le_antisymm hle hnonneg)
    · refine Or.inl ⟨hzero, ⟨t, hrun, hc⟩, fun hspent => hzero ?_⟩
      rw [← hc]
      exact hspent.2 _ t hrun

lemma toInt_half (x : Long) : (x.sshiftRight 1).toInt = x.toInt / 2 := by
  rw [BitVec.toInt_sshiftRight, Int.shiftRight_eq_div_pow]
  rfl

/-- The new counter, in 32 bits. -/
lemma toInt_recompute (hcounter : 0 ≤ t.counter.toInt) (hpriority : 0 < t.priority.toInt) :
    t.recompute.counter.toInt = if t.counter.toInt / 2 + t.priority.toInt < 2 ^ 31
      then t.counter.toInt / 2 + t.priority.toInt else t.counter.toInt / 2 + t.priority.toInt - 2 ^ 32 := by
  have hc := BitVec.two_mul_toInt_lt (x := t.counter)
  have hp := BitVec.two_mul_toInt_lt (x := t.priority)
  have hsum : t.recompute.counter.toInt = (t.counter.toInt / 2 + t.priority.toInt).bmod (2 ^ 32) := by
    rw [SchedTask.recompute, BitVec.toInt_add, toInt_half]
  rw [hsum]
  split_ifs with hlt
  · exact Int.bmod_eq_of_le (by omega) (by omega)
  · rw [← Int.sub_bmod_right]
    exact Int.bmod_eq_of_le (by omega) (by omega)

lemma recompute_of_ne (hi : i ≠ 0) (ht : task i = some t) : recompute task i = some t.recompute := by
  rw [recompute, if_neg hi, ht]
  rfl

lemma Runnable.recompute (h : Runnable task i t) : Runnable (recompute task) i t.recompute :=
  ⟨h.1, recompute_of_ne h.1 h.2.1, h.2.2⟩

end Select

/-- What is picked: task 0 if there is nothing else, and else the task that has the most time left, once all have got
new time if none had any. -/
structure Picks (task : SchedTable) (next : Fin nrTasks) (task' : SchedTable) : Prop where
  idle : next = 0 ↔ ∀ i t, ¬Runnable task i t
  best : next ≠ 0 → ∃ t, Runnable task' next t ∧ ∀ j u, Runnable task' j u → u.counter.toInt ≤ t.counter.toInt
  kept : ¬Spent task → task' = task
  absent : ∀ i, task i = none → task' i = none
  renewed : Spent task → ∀ i t, task i = some t → ∃ c : Long, task' i = some { t with counter := c } ∧
    c.toInt = if i = 0 then t.counter.toInt else t.counter.toInt / 2 + t.priority.toInt

section Picking

variable {task task' : SchedTable} {i next : Fin nrTasks} {t : SchedTask}

/-- All runnable tasks have time after a recalculation. -/
lemma select_recompute (hpriority : ∀ i t, task i = some t → 0 < t.priority.toInt) (h : Spent task) :
    0 < (select (recompute task)).c.toInt := by
  obtain ⟨⟨i, t, ht⟩, hzero⟩ := h
  have hle := ht.recompute.le_select
  have hp := hpriority i t ht.2.1
  have hcounter : t.recompute.counter = t.priority := by
    rw [SchedTask.recompute, hzero i t ht]
    exact BitVec.zero_add _
  rw [hcounter] at hle
  omega

/-- The loop ends after one recalculation at most, and picks as it should. -/
theorem selection_exact (h : ∀ i t, task i = some t →
    0 < t.priority.toInt ∧ 0 ≤ t.counter.toInt ∧ t.counter.toInt / 2 + t.priority.toInt < 2 ^ 31) :
    ∃ next task', iterate scheduleBody 2 task = some (next, task') ∧ Picks task next task' := by
  have hbest : ∀ {task' : SchedTable} {t}, Runnable task' (select task').next t → t.counter = (select task').c →
      ∀ j u, Runnable task' j u → u.counter.toInt ≤ t.counter.toInt := by
    intro task' t ht hc j u hu
    rw [hc]
    exact hu.le_select
  rcases select_cases fun i t ht => (h i t ht).2.1 with ⟨hc, hnext, hnone⟩ | ⟨hc, ⟨t, ht, htc⟩, hspent⟩ | ⟨hc, hspent⟩
  · refine ⟨0, task, iterate_leave ?_, ⟨iff_of_true rfl hnone, fun hne => absurd rfl hne, fun _ => rfl, fun _ => id, ?_⟩⟩
    · rw [scheduleBody, if_pos hc, hnext]
    · rintro ⟨⟨i, t, ht⟩, _⟩
      exact absurd ht (hnone i t)
  · refine ⟨(select task).next, task, iterate_leave (if_pos hc), ⟨?_, ?_, fun _ => rfl, fun _ => id, ?_⟩⟩
    · exact iff_of_false ht.1 fun hnone => hnone _ t ht
    · exact fun _ => ⟨t, ht, hbest ht htc⟩
    · exact fun hs => absurd hs hspent
  · have hagain : scheduleBody task = .again (recompute task) := if_neg (not_not.mpr hc)
    have hpos := select_recompute (fun i t ht => (h i t ht).1) hspent
    have hleave : scheduleBody (recompute task) = .leave ((select (recompute task)).next, recompute task) := by
      refine if_pos fun hzero => ?_
      rw [hzero] at hpos
      exact absurd hpos (by decide)
    obtain ⟨u, hu, huc⟩ : ∃ u, Runnable (recompute task) (select (recompute task)).next u ∧
        u.counter = (select (recompute task)).c := by
      rcases (select_spec (recompute task)).found with hminus | ⟨_, hfound⟩
      · rw [hminus] at hpos
        exact absurd hpos (by decide)
      · exact hfound
    refine ⟨_, _, (iterate_again hagain).trans (iterate_leave hleave), ⟨?_, ?_, ?_, ?_, ?_⟩⟩
    · obtain ⟨⟨i, t, ht⟩, _⟩ := hspent
      exact iff_of_false hu.1 fun hnone => hnone i t ht
    · exact fun _ => ⟨u, hu, hbest hu huc⟩
    · exact fun hs => absurd hspent hs
    · intro i hi
      rw [recompute, hi, Option.map_none, ite_self]
    · intro _ i t ht
      by_cases hi : i = 0
      · exact ⟨t.counter, by rw [recompute, if_pos hi, ht], (if_pos hi).symm⟩
      · obtain ⟨hp, hc, hsum⟩ := h i t ht
        refine ⟨t.recompute.counter, recompute_of_ne hi ht, ?_⟩
        rw [toInt_recompute hc hp, if_pos hsum, if_neg hi]

/-- The idle task and one other, both runnable. -/
def idleAndOne : SchedTable := fun i => if i = 0 then some ⟨0, 15, 15⟩ else if i = 1 then some ⟨0, 3, 15⟩ else none

lemma idleAndOne_bounded (i : Fin nrTasks) (t : SchedTask) (ht : idleAndOne i = some t) :
    0 < t.priority.toInt ∧ 0 ≤ t.counter.toInt ∧ t.counter.toInt / 2 + t.priority.toInt < 2 ^ 31 := by
  unfold idleAndOne at ht
  split_ifs at ht
  · obtain rfl := Option.some.inj ht
    decide
  · obtain rfl := Option.some.inj ht
    decide

theorem selection_exact_idleAndOne :
    ∃ next task', iterate scheduleBody 2 idleAndOne = some (next, task') ∧ Picks idleAndOne next task' :=
  selection_exact idleAndOne_bounded

/-- Task 0 is runnable and has more time left than the task that is picked. -/
theorem idle_not_considered : ¬∀ task : SchedTable, (∀ i t, task i = some t →
    0 < t.priority.toInt ∧ 0 ≤ t.counter.toInt ∧ t.counter.toInt / 2 + t.priority.toInt < 2 ^ 31) →
      ∃ next task', iterate scheduleBody 2 task = some (next, task') ∧ ((∃ i t, Runnable task i t) →
        ∃ t, task' next = some t ∧ t.state = taskRunning ∧
          ∀ j u, task' j = some u → u.state = taskRunning → u.counter.toInt ≤ t.counter.toInt) := by
  intro hall
  obtain ⟨next, task', hrun, hbest⟩ := hall idleAndOne idleAndOne_bounded
  have hpick : iterate scheduleBody 2 idleAndOne = some (1, idleAndOne) := rfl
  rw [hpick] at hrun
  obtain ⟨rfl, rfl⟩ := Prod.mk.inj (Option.some.inj hrun)
  obtain ⟨t, ht, _, hmax⟩ := hbest ⟨1, ⟨0, 3, 15⟩, by decide, rfl, rfl⟩
  obtain rfl := Option.some.inj ht
  exact absurd (hmax 0 ⟨0, 15, 15⟩ rfl rfl) (by decide)

end Picking

structure SchedState where
  task : SchedTable
  current : Fin nrTasks

def SchedState.put (s : SchedState) (i : Fin nrTasks) (t : SchedTask) : SchedState :=
  { s with task := Function.update s.task i (some t) }

/-- `changed` is whatever else becomes of the state of a task. -/
inductive SchedEvent
  | fork (nr : Fin nrTasks)
  | nice (increment : Long)
  | tick (cpl : Bool)
  | schedule
  | changed (i : Fin nrTasks) (state : ℤ)
  | release (i : Fin nrTasks)

inductive SchedStep : SchedState → SchedEvent → SchedState → Prop
  | fork {s nr t} (ht : s.task s.current = some t) (hfree : s.task nr = none) :
    SchedStep s (.fork nr) (s.put nr t.child)
  | nice {s increment t} (ht : s.task s.current = some t) :
    SchedStep s (.nice increment) (s.put s.current (t.nice increment))
  | tick {s cpl t} (ht : s.task s.current = some t) (h : t.isUp → cpl = false) :
    SchedStep s (.tick cpl) (s.put s.current t.tick)
  | timeUp {s t next task'} (ht : s.task s.current = some t) (h : t.isUp)
    (hrun : Returns scheduleBody (s.put s.current t.tick).task (next, task')) : SchedStep s (.tick true) ⟨task', next⟩
  | schedule {s next task'} (hrun : Returns scheduleBody s.task (next, task')) : SchedStep s .schedule ⟨task', next⟩
  | changed {s i state t} (ht : s.task i = some t) :
    SchedStep s (.changed i state) (s.put i { t with state := state })
  | release {s i} (hi : i ≠ 0) :
    SchedStep s (.release i) { s with task := Function.update s.task i none }

/-- `INIT_TASK` alone. -/
def bootTasks : SchedState where
  task i := if i = 0 then some ⟨0, 15, 15⟩ else none
  current := 0

def schedSystem : System SchedState SchedEvent where
  init s := s = bootTasks
  step := SchedStep

/-- The new counters fit, if there is a recalculation. -/
def Fits (task : SchedTable) : Prop :=
  Spent task → ∀ i t, i ≠ 0 → task i = some t → t.counter.toInt / 2 + t.priority.toInt < 2 ^ 31

/-- No call of `schedule` makes a counter too large. -/
def InRange (s : SchedState) : SchedEvent → Prop
  | .tick cpl => ∀ t, s.task s.current = some t → t.isUp → cpl = true → Fits (s.put s.current t.tick).task
  | .schedule => Fits s.task
  | _ => True

def SchedTask.Sane (t : SchedTask) : Prop := 0 < t.priority.toInt ∧ 0 ≤ t.counter.toInt

def Sane (task : SchedTable) : Prop := ∀ i t, task i = some t → t.Sane

section Runs

variable {task task' : SchedTable} {s s' : SchedState} {e : SchedEvent} {i next : Fin nrTasks} {t u : SchedTask}

lemma Sane.put (h : Sane s.task) (i : Fin nrTasks) (ht : t.Sane) : Sane (s.put i t).task := by
  intro j u hu
  unfold SchedState.put at hu
  dsimp only at hu
  by_cases hj : j = i
  · subst hj
    rw [Function.update_self] at hu
    exact Option.some.inj hu ▸ ht
  · rw [Function.update_of_ne hj] at hu
    exact h j u hu

lemma SchedTask.Sane.nice (h : t.Sane) (increment : Long) : (t.nice increment).Sane := by
  unfold SchedTask.nice
  split_ifs with hpos
  · exact ⟨hpos, h.2⟩
  · exact h

lemma SchedTask.Sane.tick (h : t.Sane) : t.tick.Sane := by
  refine ⟨h.1, ?_⟩
  unfold SchedTask.tick
  dsimp only
  split_ifs with hup
  · exact le_refl _
  · unfold SchedTask.isUp at hup
    exact (not_not.mp hup).le

/-- A call of `schedule` leaves all in order if and only if the new counters fit. -/
lemma Sane.schedule (h : Sane task) (hrun : Returns scheduleBody task (next, task')) : Sane task' ↔ Fits task := by
  have hkeeps : ∀ {next'}, scheduleBody task = .leave (next', task) → ¬Spent task → (Sane task' ↔ Fits task) := by
    intro next' hleave hspent
    obtain ⟨rfl, rfl⟩ := Prod.mk.inj (hrun.unique (returns_leave hleave))
    exact iff_of_true h fun hs => absurd hs hspent
  rcases select_cases fun i t ht => (h i t ht).2 with ⟨hc, _, hnone⟩ | ⟨hc, _, hspent⟩ | ⟨hc, hspent⟩
  · refine hkeeps (if_pos hc) ?_
    rintro ⟨⟨i, t, ht⟩, _⟩
    exact hnone i t ht
  · exact hkeeps (if_pos hc) hspent
  · have hagain : scheduleBody task = .again (recompute task) := if_neg (not_not.mpr hc)
    have hpos := select_recompute (fun i t ht => (h i t ht).1) hspent
    have hleave : scheduleBody (recompute task) = .leave ((select (recompute task)).next, recompute task) := by
      refine if_pos fun hzero => ?_
      rw [hzero] at hpos
      exact absurd hpos (by decide)
    obtain ⟨rfl, rfl⟩ := Prod.mk.inj (hrun.unique ((returns_leave hleave).again hagain))
    have hone : ∀ i t, task i = some t → (t.recompute.Sane ↔ t.counter.toInt / 2 + t.priority.toInt < 2 ^ 31) := by
      intro i t ht
      obtain ⟨hp, hn⟩ := h i t ht
      have hc := BitVec.two_mul_toInt_lt (x := t.counter)
      have hp' := BitVec.two_mul_toInt_lt (x := t.priority)
      have hnew := toInt_recompute hn hp
      unfold SchedTask.Sane
      rw [hnew]
      split_ifs with hlt
      · exact iff_of_true ⟨hp, by omega⟩ hlt
      · exact iff_of_false (fun hs => by omega) hlt
    constructor
    · intro hs _ i t hi ht
      exact (hone i t ht).mp (hs i _ (recompute_of_ne hi ht))
    · intro hfits i u hu
      by_cases hi : i = 0
      · rw [recompute, if_pos hi] at hu
        exact h i u hu
      · rw [recompute, if_neg hi, Option.map_eq_some_iff] at hu
        obtain ⟨t, ht, rfl⟩ := hu
        exact (hone i t ht).mpr (hfits hspent i t hi ht)

lemma Sane.step (h : Sane s.task) (hs : SchedStep s e s') : Sane s'.task ↔ InRange s e := by
  cases hs with
  | @fork nr t ht hfree =>
    have hp := (h _ t ht).1
    exact iff_of_true (h.put nr ⟨hp, hp.le⟩) trivial
  | @nice increment t ht => exact iff_of_true (h.put _ ((h _ t ht).nice increment)) trivial
  | @tick cpl t ht hup =>
    refine iff_of_true (h.put _ (h _ t ht).tick) fun u hu hup' hcpl => ?_
    obtain rfl := Option.some.inj (ht.symm.trans hu)
    exact absurd (hup hup') (by rw [hcpl]; decide)
  | @timeUp t next task' ht hup hrun =>
    rw [(h.put _ (h _ t ht).tick).schedule hrun]
    constructor
    · intro hfits u hu _ _
      rwa [← Option.some.inj (ht.symm.trans hu)]
    · exact fun hin => hin t ht hup rfl
  | schedule hrun => exact h.schedule hrun
  | @changed i state t ht => exact iff_of_true (h.put i (h i t ht)) trivial
  | @release i hi =>
    refine iff_of_true (fun j u hu => ?_) trivial
    dsimp only at hu
    rw [Function.update_apply] at hu
    split_ifs at hu
    exact h j u hu

/-- The numbers stay sane as long as the new counters fit in 32 bits, and no longer. -/
theorem numbers_sane (hs : schedSystem.Reach InRange s) :
    Sane s.task ∧ ∀ e s', SchedStep s e s' → (Sane s'.task ↔ InRange s e) := by
  have hsane : Sane s.task := by
    apply hs.invariant (I := fun s => Sane s.task)
    · rintro s rfl i t ht
      unfold bootTasks at ht
      dsimp only at ht
      split_ifs at ht
      obtain rfl := Option.some.inj ht
      exact ⟨by decide, by decide⟩
    · exact fun s e s' h hok hstep => (h.step hstep).mpr hok
  exact ⟨hsane, fun e s' hstep => hsane.step hstep⟩

/-- `sys_nice` leaves no priority above half of what a counter can hold. -/
def Modest (s : SchedState) : SchedEvent → Prop
  | .nice increment => ∀ t, s.task s.current = some t → (t.nice increment).priority.toInt ≤ 2 ^ 30
  | _ => True

structure Low (task : SchedTable) : Prop where
  sane : Sane task
  priority : ∀ i t, task i = some t → t.priority.toInt ≤ 2 ^ 30

lemma Low.fits (h : Low task) : Fits task := by
  intro _ i t _ ht
  have hp := h.priority i t ht
  have hc := BitVec.two_mul_toInt_lt (x := t.counter)
  omega

lemma Low.put (h : Low s.task) (i : Fin nrTasks) (ht : t.Sane) (hp : t.priority.toInt ≤ 2 ^ 30) :
    Low (s.put i t).task := by
  refine ⟨h.sane.put i ht, fun j u hu => ?_⟩
  unfold SchedState.put at hu
  dsimp only at hu
  rw [Function.update_apply] at hu
  split_ifs at hu
  · exact Option.some.inj hu ▸ hp
  · exact h.priority j u hu

lemma Low.schedule (h : Low task) (hrun : Returns scheduleBody task (next, task')) : Low task' := by
  refine ⟨(h.sane.schedule hrun).mpr h.fits, ?_⟩
  obtain ⟨n, hn⟩ := hrun
  refine iterate_invariant (fun task => ∀ i t, task i = some t → t.priority.toInt ≤ 2 ^ 30)
    (Q := fun r => ∀ i t, r.2 i = some t → t.priority.toInt ≤ 2 ^ 30) ?_ ?_ h.priority hn
  · intro task task' hp hagain i u hu
    unfold scheduleBody at hagain
    split_ifs at hagain
    obtain rfl := Pass.again.inj hagain
    unfold recompute at hu
    split_ifs at hu
    · exact hp i u hu
    · obtain ⟨t, ht, rfl⟩ := Option.map_eq_some_iff.mp hu
      exact hp i t ht
  · intro task r hp hleave
    unfold scheduleBody at hleave
    split_ifs at hleave
    obtain rfl := Pass.leave.inj hleave
    exact hp

/-- Modest priorities are enough. -/
theorem sane_of_modest (hs : schedSystem.Reach Modest s) : Sane s.task := by
  suffices h : Low s.task from h.sane
  apply hs.invariant (I := fun s => Low s.task)
  · rintro s rfl
    refine ⟨(numbers_sane (.start rfl)).1, fun i t ht => ?_⟩
    unfold bootTasks at ht
    dsimp only at ht
    split_ifs at ht
    obtain rfl := Option.some.inj ht
    decide
  · intro s e s' h hok hstep
    cases hstep with
    | @fork nr t ht hfree =>
      have hp := (h.sane _ t ht).1
      exact h.put nr ⟨hp, hp.le⟩ (h.priority _ t ht)
    | @nice increment t ht => exact h.put _ ((h.sane _ t ht).nice increment) (hok t ht)
    | @tick cpl t ht hup => exact h.put _ (h.sane _ t ht).tick (h.priority _ t ht)
    | @timeUp t next task' ht hup hrun => exact (h.put _ (h.sane _ t ht).tick (h.priority _ t ht)).schedule hrun
    | schedule hrun => exact h.schedule hrun
    | @changed i state t ht => exact h.put i (h.sane i t ht) (h.priority i t ht)
    | @release i hi =>
      have hold : ∀ j u, Function.update s.task i none j = some u → s.task j = some u := by
        intro j u hu
        rw [Function.update_apply] at hu
        split_ifs at hu
        exact hu
      exact ⟨fun j u hu => h.sane j u (hold j u hu), fun j u hu => h.priority j u (hold j u hu)⟩

/-- Task 0 lowers its priority to 1 and forks. -/
def bootFork : SchedState := (bootTasks.put 0 ⟨0, 15, 1⟩).put 1 ⟨0, 1, 1⟩

lemma reach_bootFork {ok : SchedState → SchedEvent → Prop} (hok : ∀ s increment, ok s (.nice increment))
    (hfork : ∀ s nr, ok s (.fork nr)) : schedSystem.Reach ok bootFork := by
  have hnice : SchedStep bootTasks (.nice 14) (bootTasks.put 0 ⟨0, 15, 1⟩) := .nice (t := ⟨0, 15, 15⟩) rfl
  have hchild : SchedStep (bootTasks.put 0 ⟨0, 15, 1⟩) (.fork 1) bootFork := .fork (t := ⟨0, 15, 1⟩) rfl rfl
  exact ((System.Reach.start rfl).next (hok _ _) hnice).next (hfork _ _) hchild

theorem numbers_sane_bootFork : Sane bootFork.task :=
  (numbers_sane (reach_bootFork (fun _ _ => trivial) fun _ _ => trivial)).1

/-- Task 1 takes all the priority there is and forks; when it has used up its time, the child is asleep. -/
theorem counter_negative : ¬∀ s, schedSystem.Reach (fun _ _ => True) s → Sane s.task := by
  intro hall
  let running : SchedState := ⟨bootFork.task, 1⟩
  let greedy := running.put 1 ⟨0, 1, 0x7fffffff⟩
  let forked := greedy.put 2 ⟨0, 0x7fffffff, 0x7fffffff⟩
  let asleep := forked.put 2 ⟨1, 0x7fffffff, 0x7fffffff⟩
  have hrun : SchedStep bootFork .schedule running := .schedule ⟨1, rfl⟩
  have hnice : SchedStep running (.nice (1 - 0x7fffffff)) greedy := .nice (t := ⟨0, 1, 1⟩) rfl
  have hfork : SchedStep greedy (.fork 2) forked := .fork (t := ⟨0, 1, 0x7fffffff⟩) rfl rfl
  have hsleep : SchedStep forked (.changed 2 1) asleep := .changed (t := ⟨0, 0x7fffffff, 0x7fffffff⟩) rfl
  have hup : SchedStep asleep (.tick true) ⟨recompute (asleep.put 1 ⟨0, 0, 0x7fffffff⟩).task, 1⟩ :=
    .timeUp (t := ⟨0, 1, 0x7fffffff⟩) rfl (by decide) ⟨2, rfl⟩
  have hstart : schedSystem.Reach (fun _ _ => True) bootFork := reach_bootFork (fun _ _ => trivial) fun _ _ => trivial
  have hreach := ((((hstart.next trivial hrun).next trivial hnice).next trivial hfork).next trivial hsleep).next trivial hup
  have hsane := hall _ hreach 2 ⟨1, 0x3fffffff + 0x7fffffff, 0x7fffffff⟩ rfl
  exact absurd hsane.2 (by decide)

end Runs

end Devos.Kernel
